import TreeQuery.Proofs.Text.JsonString
import TreeQuery.Proofs.Token.Spelling

/-!
Rendering the tokens of selectors.

A token is rendered as its value, with the dot and the quotes of a name, the brackets of a type and
the colon of a pseudo-class; white space is rendered as one space. Renderings need nothing between
them: a rendering starts like the text of its token, unless it starts with the dot of a name, with a
space or with a sign, and none of these goes on a token that its text did not go on.
-/

namespace TreeQuery

open TokenRule

/-- The shortest text of a token, with quotes around every name. -/
def Token.rendering (token : Token) : List Char :=
  match token.kind with
  | .identifier => '.' :: JsonString.encode token.value.toList
  | .declaredType => '[' :: (token.value.toList ++ [']'])
  | .pseudoClass | .nthFunction | .pseudoClassFunction => ':' :: token.value.toList
  | _ => token.value.toList

namespace Token

variable {position : Nat} {span name : List Char} {sign : Char} {kind : TokenKind} {value : String}

@[simp] theorem rendering_argument :
    rendering ⟨.arguments, String.ofList span, position⟩ = span :=
  String.toList_ofList

@[simp] theorem rendering_star : rendering ⟨.operator, "*", position⟩ = ['*'] := by
  simp [rendering]

@[simp] theorem rendering_sign :
    rendering ⟨.operator, String.ofList [sign], position⟩ = [sign] :=
  String.toList_ofList

@[simp] theorem rendering_space : rendering ⟨.operator, " ", position⟩ = [' '] := by
  simp [rendering]

@[simp] theorem rendering_reference :
    rendering ⟨.declaredType, String.ofList name, position⟩ = '[' :: (name ++ [']']) :=
  congrArg (fun inner => '[' :: (inner ++ [']'])) String.toList_ofList

@[simp] theorem rendering_number :
    rendering ⟨.literal, String.ofList span, position⟩ = span :=
  String.toList_ofList

theorem rendering_colonWord {words : List String} (areWords : (kind, words) ∈ colonWords) :
    rendering ⟨kind, value, position⟩ = ':' :: value.toList := by
  simp only [colonWords, List.mem_cons, List.not_mem_nil, or_false, Prod.mk.injEq] at areWords
  rcases areWords with ⟨rfl, _⟩ | ⟨rfl, _⟩ | ⟨rfl, _⟩ <;> rfl

end Token

/-! ## String literals as quoted names -/

theorem Pattern.matches_many_append {pattern : Pattern} {front back : List Char}
    (frontMatches : (Pattern.many pattern).Matches front)
    (backMatches : (Pattern.many pattern).Matches back) :
    (Pattern.many pattern).Matches (front ++ back) := by
  generalize repeated : Pattern.many pattern = whole at frontMatches
  induction frontMatches with
  | manyNil =>
      cases repeated
      exact backMatches
  | manyCons itemMatches _ _ induction =>
      cases repeated
      rw [List.append_assoc]
      exact .manyCons itemMatches (induction rfl)
  | _ => cases repeated

namespace TokenRule

open Pattern

theorem matches_stringItem {c : Char} (notQuote : c ≠ '"') (notEscape : c ≠ '\\') :
    stringItem.Matches [c] :=
  matches_stringItem_iff.mpr (.inl ⟨c, rfl, notQuote, notEscape⟩)

theorem matches_escape {c : Char} (notLine : c ≠ '\n') : stringItem.Matches ['\\', c] :=
  matches_stringItem_iff.mpr (.inr ⟨c, rfl, notLine⟩)

theorem not_mark_of_hexValue? {c : Char} {digit : Nat}
    (isHex : JsonString.hexValue? c = some digit) : c ≠ '"' ∧ c ≠ '\\' := by
  refine ⟨?_, ?_⟩ <;> rintro rfl <;> cases isHex

/-- The digits of a code are characters that stand for themselves. -/
theorem matches_code {a b c d : Char} {unit : Nat}
    (isCode : JsonString.codeUnit? a b c d = some unit) :
    (Pattern.many stringItem).Matches ['\\', 'u', a, b, c, d] := by
  simp only [JsonString.codeUnit?, Option.bind_eq_bind, Option.bind_eq_some_iff] at isCode
  obtain ⟨_, isFirst, _, isSecond, _, isThird, _, isFourth, _⟩ := isCode
  have digit {c : Char} {digit : Nat} (isHex : JsonString.hexValue? c = some digit) :
      stringItem.Matches [c] :=
    matches_stringItem (not_mark_of_hexValue? isHex).1 (not_mark_of_hexValue? isHex).2
  exact .manyCons (matches_escape (c := 'u') (by decide)) <| .manyCons (digit isFirst) <|
    .manyCons (digit isSecond) <| .manyCons (digit isThird) <|
      .manyCons (digit isFourth) .manyNil

/-- What stands for a character in a literal are items of a quoted string. -/
theorem matches_word {c : Char} {word : List Char} (writes : JsonString.Writes c word) :
    (Pattern.many stringItem).Matches word := by
  cases writes with
  | plain notQuote notEscape => exact .manyCons (matches_stringItem notQuote notEscape) .manyNil
  | @short letter reads =>
      have notLine : letter ≠ '\n' := by
        rintro rfl
        cases reads
      exact .manyCons (matches_escape notLine) .manyNil
  | code isCode => exact matches_code isCode
  | pair isHigh isLow => exact matches_many_append (matches_code isHigh) (matches_code isLow)

theorem matches_writesAll {text body : List Char} (writes : JsonString.WritesAll text body) :
    (Pattern.many stringItem).Matches body := by
  induction writes with
  | nil => exact .manyNil
  | cons first _ induction => exact matches_many_append (matches_word first) induction

/-- A strict literal is a quoted string. -/
theorem matches_isLiteral {literal text : List Char}
    (isLiteral : JsonString.IsLiteral literal text) : quoted.Matches literal := by
  obtain ⟨body, rfl, writes⟩ := isLiteral
  exact matches_quoted_iff_items.mpr ⟨body, rfl, matches_writesAll writes⟩

end TokenRule

/-! ## What a rendering starts with -/

/-- The characters with which a rendering starts like the text of its token. -/
def keptHeads : List Char :=
  ['(', '*', '[', ':'] ++ kindLetters ++ numberHeads

/-- How a text of renderings starts, compared with the texts of the same tokens. -/
inductive Follows : List Char → List Char → Prop where
  | ended {after : List Char} : Follows after []
  | name {after rest : List Char} : Follows after ('.' :: '"' :: rest)
  | blanks {c : Char} {after rest : List Char} (blank : isBlank c = true) :
      Follows (c :: after) (' ' :: rest)
  | sign {sign : Char} {before after rest : List Char} (isSign : sign ∈ signs)
      (beforeBlank : ∀ c ∈ before, isBlank c = true) :
      Follows (before ++ sign :: after) (sign :: rest)
  | kept {c : Char} {after rest : List Char} (isHead : c ∈ keptHeads) :
      Follows (c :: after) (c :: rest)

variable {span after behind rest : List Char} {kind : TokenKind} {value : String} {position : Nat}
  {token : Token}

theorem Spelling.follows (spelling : Spelling span kind value) (position : Nat)
    (after rest : List Char) :
    Follows (span ++ after) (Token.rendering ⟨kind, value, position⟩ ++ rest) := by
  cases spelling with
  | argument opens _ =>
      obtain ⟨inner, rfl⟩ := List.head?_eq_some_iff.mp opens
      rw [Token.rendering_argument]
      exact .kept (by decide)
  | star =>
      rw [Token.rendering_star]
      exact .kept (by decide)
  | sign isSign beforeBlank _ =>
      rw [Token.rendering_sign, List.append_assoc]
      exact .sign isSign beforeBlank
  | blanks nonempty blank =>
      obtain ⟨first, others, rfl⟩ := List.exists_cons_of_ne_nil nonempty
      rw [Token.rendering_space]
      exact .blanks (blank first List.mem_cons_self)
  | kindWord isWord =>
      obtain ⟨first, isLetter, others, spelled⟩ := exists_letter_of_kindWord isWord
      simp only [Token.rendering, spelled]
      exact .kept (List.mem_append_left _ (List.mem_append_right _ isLetter))
  | reference =>
      rw [Token.rendering_reference]
      exact .kept (by decide)
  | bareName => exact .name
  | quotedName => exact .name
  | number isNumber =>
      obtain ⟨first, others, rfl⟩ := List.exists_cons_of_ne_nil (ne_nil_of_number isNumber)
      have isHead := mem_numberHeads_of_starts (Pattern.starts_of_matches isNumber rfl)
      rw [Token.rendering_number]
      exact .kept (List.mem_append_right _ isHead)
  | colonWord areWords =>
      rw [Token.rendering_colonWord areWords]
      exact .kept (by decide)

namespace Follows

theorem not_gap_of_mem_keptHeads {c : Char} (isHead : c ∈ keptHeads) : ¬ IsGap c :=
  not_blank_or_sign isHead (by decide)

/-- Where a text of renderings goes on with a character of a name, the text of the tokens did. -/
theorem of_continuesName {c : Char} (follows : Follows after (c :: rest))
    (continues : continuesName c = true) : c ∈ keptHeads ∧ after.head? = some c := by
  cases follows with
  | name => exact absurd continues (by decide)
  | blanks => exact absurd continues (by decide)
  | sign isSign => cases (not_name_of_mem_signs isSign).2.2.symm.trans continues
  | kept isKept => exact ⟨isKept, rfl⟩

theorem not_blank (follows : Follows after behind) (kept : ∀ c ∈ after.head?, isBlank c = false) :
    ∀ c ∈ behind.head?, isBlank c = false := by
  intro c isHead
  cases follows with
  | ended => cases isHead
  | name =>
      cases isHead
      decide
  | blanks firstBlank => cases (kept _ rfl).symm.trans firstBlank
  | sign isSign =>
      cases isHead
      exact not_blank_of_mem_signs isSign
  | kept isKept =>
      cases isHead
      exact kept c rfl

theorem not_gap (follows : Follows after behind) (kept : ∀ c ∈ after.head?, ¬ IsGap c) :
    ∀ c ∈ behind.head?, ¬ IsGap c := by
  intro c isHead
  cases follows with
  | ended => cases isHead
  | name =>
      cases isHead
      simp only [IsGap]
      decide
  | blanks firstBlank => exact absurd (.inl firstBlank) (kept _ rfl)
  | @sign sign before _ _ isSign beforeBlank =>
      cases before with
      | nil => exact absurd (.inr isSign) (kept sign rfl)
      | cons first before => exact absurd (.inl (beforeBlank first (by simp))) (kept first rfl)
  | kept isKept =>
      cases isHead
      exact not_gap_of_mem_keptHeads isKept

theorem not_point {digit : Char} (follows : Follows after ('.' :: digit :: rest)) :
    digit.isDigit = false := by
  cases follows with
  | name => rfl
  | sign isSign => exact absurd isSign (by decide)
  | kept isKept => exact absurd isKept (by decide)

end Follows

/-! ## Reading renderings -/

/-- A name in quotes is read whatever follows. -/
theorem Token.IsNext.of_quoted (isName : token.kind = .identifier)
    (isQuoted : (dotted quoted).Matches span)
    (reads : readValue .identifier span 0 = .ok token.value) : token.IsNext span behind := by
  have isPrefix := List.prefix_append span behind
  obtain ⟨first, rest, rfl, notOpening⟩ : ∃ first rest, span = first :: rest ∧ first ≠ '(' := by
    obtain ⟨dot, text, rfl, isDot, isText⟩ := exists_of_matches_dotted isQuoted
    obtain ⟨body, rfl, _⟩ := exists_of_matches_quoted isText
    rcases isDot with rfl | rfl
    · exact ⟨'"', body, rfl, by decide⟩
    · exact ⟨'.', '"' :: body, rfl, by decide⟩
  have matched := longest?_of_unique IsSelectorRule.quotedName.mem isPrefix (by simp) isQuoted
    fun taker isTaker more morePrefix moreMatches => by
      have isSame := quoted_of_takes isTaker moreMatches (by simp) morePrefix isQuoted isPrefix
      rw [isSame] at moreMatches
      have same := quoted_unique isQuoted moreMatches isPrefix morePrefix
      exact ⟨isSame, List.append_right_eq_self.mp same.symm⟩
  exact .of_longest? (by simpa using notOpening) (by simp) matched (congrArg some isName.symm)
    (isName ▸ reads)

theorem Token.IsNext.of_encoded (isName : token.kind = .identifier) :
    token.IsNext ('.' :: JsonString.encode token.value.toList) behind := by
  have isDotted : (dotted quoted).Matches ('.' :: JsonString.encode token.value.toList) :=
    .seq (.left (.one rfl)) (matches_isLiteral (JsonString.isLiteral_encode token.value.toList))
  refine .of_quoted isName isDotted ?_
  change readString (JsonString.encode token.value.toList) 0 = .ok token.value
  rw [readString, JsonString.decode?_encode]
  exact congrArg Except.ok String.ofList_toList

theorem Token.ReadFrom.ends_of_kindWord {rule : TokenRule} {more : List Char} {word : String}
    (read : token.ReadFrom .selector position word.toList after) (isKind : token.kind = .nativeKind)
    (isWord : word ∈ kindWords) (follows : Follows after behind) (isRule : rule ∈ selectorRules)
    (isPrefix : more <+: behind) (found : rule.pattern.Matches (word.toList ++ more)) :
    more = [] := by
  cases more with
  | nil => rfl
  | cons c more =>
      obtain ⟨rest, rfl⟩ := isPrefix
      have continues := continuesName_of_kindWord isRule isWord found
      obtain ⟨_, isHead⟩ := follows.of_continuesName continues
      cases (read.not_continuesName isKind c isHead).symm.trans continues

/-- What goes on behind a number is a digit, and only a digit that the number takes itself. -/
theorem Token.ReadFrom.ends_of_number {rule : TokenRule} {more : List Char}
    (read : token.ReadFrom .selector position span after) (isLiteral : token.kind = .literal)
    (isNumber : number.Matches span) (follows : Follows after behind)
    (isRule : rule ∈ selectorRules) (isPrefix : more <+: behind)
    (found : rule.pattern.Matches (span ++ more)) : more = [] := by
  cases more with
  | nil => rfl
  | cons c more =>
      obtain ⟨rest, rfl⟩ := isPrefix
      rcases goes_on_of_number isRule isNumber found with isDigit | rfl | rfl | isPoint
      · obtain ⟨_, isHead⟩ := follows.of_continuesName (continuesName_of_isDigit isDigit)
        obtain ⟨others, rfl⟩ := List.head?_eq_some_iff.mp isHead
        have isNil := read.eq_nil (by simp [isLiteral]) IsSelectorRule.number.mem
          (List.prefix_append [c] others) (matches_number_append isNumber isDigit)
        cases isNil
      · exact absurd (follows.of_continuesName (by decide)).1 (by decide)
      · exact absurd (follows.of_continuesName (by decide)).1 (by decide)
      · obtain ⟨rfl, digit, others, rfl, isDigit⟩ := isPoint
        cases follows.not_point.symm.trans isDigit

/-- A token is read again from its rendering, before the renderings of the tokens behind it. -/
theorem Token.ReadFrom.isNext_rendering (read : token.ReadFrom .selector position span after)
    (follows : Follows after behind) : token.IsNext token.rendering behind := by
  obtain ⟨kind, value, place⟩ := token
  have spelling : Spelling span kind value := read.spelling
  cases spelling with
  | argument opens closes =>
      rw [rendering_argument]
      exact .of_split? rfl rfl opens (closes behind)
  | star =>
      rw [rendering_star]
      exact read.isNext_before fun _ isRule _ _ found => eq_nil_of_star isRule found
  | @sign sign _ _ isSign beforeBlank behindBlank =>
      have notBlank := follows.not_blank (read.not_blank_behind rfl isSign beforeBlank behindBlank)
      have isNext : Token.IsNext ⟨.operator, String.ofList [sign], place⟩ ([] ++ [sign]) behind :=
        .of_sign isSign (by simp) (by simp) notBlank rfl rfl
      rw [rendering_sign]
      exact isNext
  | blanks nonempty blank =>
      have notGap := follows.not_gap (read.not_gap_behind rfl blank)
      rw [rendering_space]
      refine .of_blanks (by simp) (List.forall_mem_singleton.mpr (by decide)) notGap ?_ rfl rfl
      intro allNames
      exact absurd (allNames ' ' List.mem_cons_self) (by decide)
  | kindWord isWord =>
      exact read.isNext_before fun _ isRule _ isPrefix found =>
        read.ends_of_kindWord rfl isWord follows isRule isPrefix found
  | reference =>
      rw [rendering_reference]
      exact read.isNext_before fun _ isRule _ _ found => eq_nil_of_reference isRule found
  | bareName => exact .of_encoded rfl
  | quotedName => exact .of_encoded rfl
  | number isNumber =>
      rw [rendering_number]
      exact read.isNext_before fun _ isRule _ isPrefix found =>
        read.ends_of_number rfl isNumber follows isRule isPrefix found
  | colonWord areWords isWord =>
      rw [rendering_colonWord areWords]
      exact read.isNext_before fun _ isRule _ _ found =>
        eq_nil_of_colonWord isRule areWords isWord found

/-! ## Texts of renderings -/

/-- Whether a text starts and ends with something other than white space. -/
def hasEnds (text : List Char) : Bool :=
  text.head?.any (fun c => !isBlank c) && text.getLast?.any fun c => !isBlank c

theorem hasEnds_iff {text : List Char} : hasEnds text = true ↔
    (∃ first, text.head? = some first ∧ isBlank first = false) ∧
      ∃ last, text.getLast? = some last ∧ isBlank last = false := by
  simp [hasEnds, Option.any_eq_true]

theorem hasEnds_of_numberHeads {first last : Char} {text : List Char}
    (isFirst : text.head? = some first) (isLast : text.getLast? = some last)
    (firstHead : first ∈ numberHeads) (lastHead : last ∈ numberHeads) : hasEnds text = true := by
  have areKept : numberHeads.all (fun c => !isBlank c) = true := by decide
  have firstKept := List.all_eq_true.mp areKept first firstHead
  have lastKept := List.all_eq_true.mp areKept last lastHead
  exact hasEnds_iff.mpr ⟨⟨first, isFirst, Bool.not_eq_true' _ ▸ firstKept⟩,
    ⟨last, isLast, Bool.not_eq_true' _ ▸ lastKept⟩⟩

theorem hasEnds_colon {text : List Char} (ends : hasEnds text = true) :
    hasEnds (':' :: text) = true := by
  obtain ⟨_, last, isLast, lastKept⟩ := hasEnds_iff.mp ends
  have isLastOfAll : (':' :: text).getLast? = some last := by simp [List.getLast?_cons, isLast]
  exact hasEnds_iff.mpr ⟨⟨':', rfl, by decide⟩, ⟨last, isLastOfAll, lastKept⟩⟩

theorem hasEnds_encode (name : List Char) : hasEnds ('.' :: JsonString.encode name) = true := by
  have isLast : ('.' :: JsonString.encode name).getLast? = some '"' := by
    rw [JsonString.encode, ← List.cons_append, ← List.cons_append, List.getLast?_concat]
  exact hasEnds_iff.mpr ⟨⟨'.', rfl, by decide⟩, ⟨'"', isLast, by decide⟩⟩

/-- Only the rendering of white space starts or ends with white space. -/
theorem Spelling.hasEnds_rendering (spelling : Spelling span kind value) (position : Nat)
    (isKept : ∃ c ∈ span, isBlank c = false) :
    hasEnds (Token.rendering ⟨kind, value, position⟩) = true := by
  cases spelling with
  | argument opens closes =>
      have isLast := Arguments.getLast?_of_splitFrom? (closes [])
      rw [Token.rendering_argument]
      exact hasEnds_iff.mpr ⟨⟨'(', opens, by decide⟩, ⟨')', isLast, by decide⟩⟩
  | star =>
      rw [Token.rendering_star]
      decide
  | @sign sign _ _ isSign =>
      have notBlank := not_blank_of_mem_signs isSign
      rw [Token.rendering_sign]
      exact hasEnds_iff.mpr ⟨⟨sign, rfl, notBlank⟩, ⟨sign, rfl, notBlank⟩⟩
  | blanks _ blank =>
      obtain ⟨c, isMember, notBlank⟩ := isKept
      cases notBlank.symm.trans (blank c isMember)
  | kindWord isWord =>
      have areKept : ∀ word ∈ kindWords, hasEnds word.toList = true := by decide +kernel
      exact areKept value isWord
  | reference =>
      rw [Token.rendering_reference, ← List.cons_append]
      exact hasEnds_iff.mpr ⟨⟨'[', rfl, by decide⟩, ⟨']', List.getLast?_concat, by decide⟩⟩
  | bareName => exact hasEnds_encode _
  | quotedName => exact hasEnds_encode _
  | number isNumber =>
      obtain ⟨init, last, ended, isDigit⟩ := (isNumberText_of_matches isNumber).endsWithDigit
      obtain ⟨first, others, started⟩ := List.exists_cons_of_ne_nil (ne_nil_of_number isNumber)
      have firstHead := mem_numberHeads_of_starts (Pattern.starts_of_matches isNumber started)
      rw [Token.rendering_number]
      exact hasEnds_of_numberHeads (by rw [started]; rfl) (by rw [ended, List.getLast?_concat])
        firstHead (mem_numberHeads_of_isDigit isDigit)
  | colonWord areWords isWord =>
      have areKept : ∀ words ∈ colonWords, ∀ word ∈ words.2, hasEnds word.toList = true := by
        decide +kernel
      rw [Token.rendering_colonWord areWords]
      exact hasEnds_colon (areKept _ areWords value isWord)

def Piece.rendering (piece : Piece) : Piece :=
  ⟨[], piece.token.rendering, piece.token⟩

theorem Piece.join_rendering (pieces : List Piece) :
    Piece.join (pieces.map Piece.rendering) =
      (pieces.map Piece.token).flatMap Token.rendering := by
  rw [Piece.join, List.flatMap_map, List.flatMap_map]
  rfl

section

variable {start : Nat} {text tail front back : List Char} {pieces before others : List Piece}

theorem IsTiling.follows (tiling : IsTiling .selector start text pieces tail)
    (split : pieces = before ++ others) :
    Follows (Piece.join others ++ tail) (Piece.join (others.map Piece.rendering)) := by
  cases others with
  | nil => exact .ended
  | cons piece others =>
      have noGap := (tiling.adjacent rfl).2 piece (by simp [split])
      have read := tiling.reads before piece others split
      have follows := read.spelling.follows piece.token.position (Piece.join others ++ tail)
        (Piece.join (others.map Piece.rendering))
      rw [← List.append_assoc] at follows
      rw [Piece.join_cons, noGap]
      exact follows

theorem IsTiling.trims_rendering (tiling : IsTiling .selector start text pieces tail)
    (trims : Grammar.selector.Trims front text back) (nonempty : text ≠ []) :
    Grammar.selector.Trims [] (Piece.join (pieces.map Piece.rendering)) [] := by
  obtain ⟨rfl, noGaps⟩ := tiling.adjacent rfl
  have spelled := tiling.spelled
  rw [List.append_nil] at spelled
  obtain ⟨_, _, headKept, lastKept⟩ := trims
  have hasEnds_of_mem : ∀ before piece behind, pieces = before ++ piece :: behind →
      (∃ c ∈ piece.span, isBlank c = false) → hasEnds piece.token.rendering = true := by
    intro before piece behind split isKept
    have read := tiling.reads before piece behind split
    exact read.spelling.hasEnds_rendering piece.token.position isKept
  refine ⟨by simp, by simp, ?_, ?_⟩
  · cases pieces with
    | nil => exact absurd spelled.symm nonempty
    | cons piece pieces =>
        obtain ⟨c, rest, isSpan⟩ :=
          List.exists_cons_of_ne_nil (tiling.reads [] piece pieces rfl).span_ne_nil
        have isHead : text.head? = some c := by
          rw [← spelled, Piece.join_cons, noGaps piece List.mem_cons_self, isSpan]
          rfl
        have isKept : ∃ c ∈ piece.span, isBlank c = false :=
          ⟨c, by simp [isSpan], headKept c isHead⟩
        obtain ⟨first, isFirst, firstKept⟩ :=
          (hasEnds_iff.mp (hasEnds_of_mem [] piece pieces rfl isKept)).1
        intro d isHead
        have same : first = d := by simpa [Piece.rendering, isFirst] using isHead
        exact same ▸ firstKept
  · rcases List.eq_nil_or_concat pieces with rfl | ⟨before, piece, rfl⟩
    · exact absurd spelled.symm nonempty
    · rw [List.concat_eq_append] at *
      obtain ⟨rest, c, isSpan⟩ := exists_last (tiling.reads before piece [] rfl).span_ne_nil
      have isLast : text.getLast? = some c := by
        rw [← spelled]
        simp [isSpan]
      have isKept : ∃ c ∈ piece.span, isBlank c = false :=
        ⟨c, by simp [isSpan], lastKept c isLast⟩
      obtain ⟨last, lastOfPiece, lastKept⟩ :=
        (hasEnds_iff.mp (hasEnds_of_mem before piece [] rfl isKept)).2
      intro d isLast
      have same : last = d := by simpa [Piece.rendering, lastOfPiece] using isLast
      exact same ▸ lastKept

theorem Cursor.start_of_kept (trims : Grammar.selector.Trims [] text []) :
    Cursor.start .selector text = ⟨.selector, 0, text⟩ := by
  cases text with
  | nil => rfl
  | cons c text =>
      have isStart := start_of_trims trims (by simp)
      rw [List.nil_append, List.append_nil] at isStart
      exact isStart

end

/-- The renderings of the tokens of a selector have the same tokens. -/
theorem tokenize_rendering {text : String} {tokens : List Token}
    (lexed : tokenize .selector text = .ok tokens) :
    ∃ others, tokenize .selector (String.ofList (tokens.flatMap Token.rendering)) = .ok others ∧
      others.map Token.content = tokens.map Token.content := by
  cases tokens with
  | nil => exact ⟨[], Cursor.tokens_nil, rfl⟩
  | cons token tokens =>
      obtain ⟨front, body, back, _, trims, nonempty, ran⟩ :=
        exists_body_of_tokenize lexed (by simp)
      obtain ⟨pieces, tail, areTokens, tiling⟩ := Cursor.tokens_isTiling ran
      have areNext : ∀ before piece behind, pieces.map Piece.rendering = before ++ piece :: behind →
          piece.token.IsNext piece.span (Piece.join behind) := by
        intro before piece behind split
        obtain ⟨first, rest, rfl, _, isRest⟩ := List.map_eq_append_iff.mp split
        obtain ⟨other, others, rfl, rfl, rfl⟩ := List.map_eq_cons_iff.mp isRest
        have split : first ++ other :: others = first ++ [other] ++ others := by simp
        exact (tiling.reads first other others rfl).isNext_rendering (tiling.follows split)
      have noGaps : ∀ piece ∈ pieces.map Piece.rendering, piece.gap = [] := by
        intro piece isPiece
        obtain ⟨other, _, rfl⟩ := List.mem_map.mp isPiece
        rfl
      obtain ⟨others, ranAgain, sameContent⟩ := Cursor.tokens_of_pieces noGaps areNext 0
      have rendered := Piece.join_rendering pieces
      rw [areTokens] at rendered
      -- The renderings start and end with no white space, so nothing is trimmed from them.
      have isStart := Cursor.start_of_kept (tiling.trims_rendering trims nonempty)
      refine ⟨others, ?_, sameContent.trans ?_⟩
      · rw [tokenize, String.toList_ofList, ← rendered, isStart]
        exact ranAgain
      · rw [← areTokens, List.map_map, List.map_map]
        rfl

theorem tokenize_rendering_names :
    tokenize .selector "a \"\\u0062é\" , 3:has(x)" = .ok [⟨.identifier, "a", 0⟩,
        ⟨.operator, " ", 1⟩, ⟨.identifier, "bé", 2⟩, ⟨.operator, ",", 12⟩, ⟨.literal, "3", 15⟩,
        ⟨.pseudoClassFunction, "has", 16⟩, ⟨.arguments, "(x)", 20⟩] ∧
      ∃ others, tokenize .selector ".\"a\" .\"bé\",3:has(x)" = .ok others ∧
        others.map Token.content = [(.identifier, "a"), (.operator, " "), (.identifier, "bé"),
          (.operator, ","), (.literal, "3"), (.pseudoClassFunction, "has"),
            (.arguments, "(x)")] := by
  have lexed : tokenize .selector "a \"\\u0062é\" , 3:has(x)" = .ok [⟨.identifier, "a", 0⟩,
      ⟨.operator, " ", 1⟩, ⟨.identifier, "bé", 2⟩, ⟨.operator, ",", 12⟩, ⟨.literal, "3", 15⟩,
      ⟨.pseudoClassFunction, "has", 16⟩, ⟨.arguments, "(x)", 20⟩] := by
    decide +kernel
  obtain ⟨others, lexedAgain, same⟩ := tokenize_rendering lexed
  refine ⟨lexed, others, ?_, same⟩
  rw [← lexedAgain]
  exact congrArg (tokenize .selector) (by decide +kernel)

end TreeQuery
