import TreeQuery.Proofs.Token.Spelling

/-!
Operators with other white space.

A sign with other white space around it is the same operator, and so is white space alone. The
tokens before it stay the same too, unless one of them is a word that takes the new white space:
names have all characters beyond ASCII, and some of them are white space.
-/

namespace TreeQuery

open TokenRule

/-- Whether a text is another one with other white space in one place. -/
inductive Respaced : List Char → List Char → Prop where
  | run {left run other right : List Char} (runNonempty : run ≠ []) (otherNonempty : other ≠ [])
      (runBlank : ∀ c ∈ run, isBlank c = true) (otherBlank : ∀ c ∈ other, isBlank c = true) :
      Respaced (left ++ run ++ right) (left ++ other ++ right)

/-- Whether characters are the same, or both white space. -/
def Alike (first second : Char) : Prop :=
  first = second ∨ isBlank first = true ∧ isBlank second = true

def kept (text : List Char) : List Char :=
  text.filter fun c => !isBlank c

theorem kept_append (front back : List Char) : kept (front ++ back) = kept front ++ kept back :=
  List.filter_append ..

theorem kept_eq_nil_iff {text : List Char} : kept text = [] ↔ ∀ c ∈ text, isBlank c = true := by
  simp [kept, List.filter_eq_nil_iff]

theorem matches_spaced_iff_kept {sign : Char} {text : List Char} (isSign : sign ∈ signs) :
    (spaced sign).Matches text ↔ kept text = [sign] := by
  have notBlank := not_blank_of_mem_signs isSign
  rw [matches_spaced_iff]
  constructor
  · intro isSpaced
    obtain ⟨before, behind, spelled, beforeBlank, behindBlank⟩ := isSpaced
    have signKept : kept [sign] = [sign] := by simp [kept, notBlank]
    rw [spelled, ← List.singleton_append, kept_append, kept_append,
      kept_eq_nil_iff.mpr beforeBlank, kept_eq_nil_iff.mpr behindBlank, signKept]
    rfl
  · intro isKept
    obtain ⟨before, behind, spelled, beforeBlank, _, isNil⟩ := List.filter_eq_cons_iff.mp isKept
    exact ⟨before, behind, spelled, by simpa using beforeBlank, kept_eq_nil_iff.mp isNil⟩

theorem Alike.isBlank {first second : Char} (alike : Alike first second)
    (blank : isBlank second = true) : isBlank first = true := by
  rcases alike with rfl | ⟨firstBlank, _⟩
  · exact blank
  · exact firstBlank

theorem Alike.isKept {first second : Char} (alike : Alike first second)
    (notBlank : TreeQuery.isBlank first = false) : TreeQuery.isBlank second = false := by
  rcases alike with rfl | ⟨blank, _⟩
  · exact notBlank
  · cases notBlank.symm.trans blank

theorem Alike.kept_eq {first second : Char} (alike : Alike first second) :
    kept [first] = kept [second] := by
  rcases alike with rfl | ⟨firstBlank, secondBlank⟩
  · rfl
  · simp [kept, firstBlank, secondBlank]

theorem Alike.kept_append_eq {front : List Char} {first second : Char}
    (alike : Alike first second) : kept (front ++ [first]) = kept (front ++ [second]) := by
  rw [kept_append, kept_append, alike.kept_eq]

namespace Respaced

variable {span other : List Char} {c : Char}

theorem ne_nil (respaced : Respaced span other) : other ≠ [] := by
  cases respaced with
  | run runNonempty otherNonempty => simp [otherNonempty]

theorem symm (respaced : Respaced span other) : Respaced other span := by
  cases respaced with
  | run runNonempty otherNonempty runBlank otherBlank =>
      exact .run otherNonempty runNonempty otherBlank runBlank

theorem kept_eq (respaced : Respaced span other) : kept other = kept span := by
  cases respaced with
  | run _ _ runBlank otherBlank =>
      simp only [kept, List.filter_append]
      rw [← kept, ← kept, ← kept, ← kept, kept_eq_nil_iff.mpr runBlank,
        kept_eq_nil_iff.mpr otherBlank]

theorem matches_spaced {sign : Char} (respaced : Respaced span other) (isSign : sign ∈ signs)
    (found : (spaced sign).Matches span) : (spaced sign).Matches other := by
  rw [matches_spaced_iff_kept isSign] at found ⊢
  rw [respaced.kept_eq, found]

theorem all_blank (respaced : Respaced span other) (blank : ∀ c ∈ span, isBlank c = true) :
    ∀ c ∈ other, isBlank c = true := by
  rw [← kept_eq_nil_iff] at blank ⊢
  rw [respaced.kept_eq, blank]

theorem ne_star (respaced : Respaced span other) : span ≠ ['*'] := by
  intro isStar
  have notBlank : ∀ c ∈ span, isBlank c = false := by
    rw [isStar]
    exact List.forall_mem_singleton.mpr (by decide)
  cases respaced with
  | run runNonempty _ runBlank =>
      obtain ⟨c, isMember⟩ := List.exists_mem_of_ne_nil _ runNonempty
      cases (notBlank c (by simp [isMember])).symm.trans (runBlank c isMember)

theorem head (respaced : Respaced span other) (isHead : other.head? = some c) :
    ∃ d, span.head? = some d ∧ Alike d c := by
  cases respaced with
  | @run left run other right runNonempty otherNonempty runBlank otherBlank =>
      cases left with
      | cons first left => exact ⟨first, rfl, .inl (Option.some.inj isHead)⟩
      | nil =>
          obtain ⟨d, run, rfl⟩ := List.exists_cons_of_ne_nil runNonempty
          obtain ⟨e, other, rfl⟩ := List.exists_cons_of_ne_nil otherNonempty
          cases isHead
          exact ⟨d, rfl, .inr ⟨runBlank d List.mem_cons_self, otherBlank _ List.mem_cons_self⟩⟩

theorem last (respaced : Respaced span other) (isLast : other.getLast? = some c) :
    ∃ d, span.getLast? = some d ∧ Alike d c := by
  cases respaced with
  | @run left run other right runNonempty otherNonempty runBlank otherBlank =>
      rcases List.eq_nil_or_concat right with rfl | ⟨right, last, rfl⟩
      · obtain ⟨run, d, rfl⟩ := exists_last runNonempty
        obtain ⟨other, e, rfl⟩ := exists_last otherNonempty
        have same : e = c := by simpa using isLast
        refine ⟨d, by simp, .inr ⟨runBlank d (by simp), ?_⟩⟩
        exact same ▸ otherBlank e (by simp)
      · have same : last = c := by simpa using isLast
        exact ⟨last, by simp, .inl same⟩

end Respaced

variable {span other middle after text front back : List Char} {kind : TokenKind} {value : String}
  {position start : Nat} {token : Token} {c d : Char}

/-! ## Operators with other white space -/

theorem startsName_of_isBlank (blank : isBlank c = true) (continues : continuesName c = true) :
    startsName c = true := by
  rw [continuesName, Bool.or_eq_true, Bool.or_eq_true, beq_iff_eq] at continues
  have notHead : c ∉ numberHeads := fun isHead =>
    not_blank_or_sign isHead (by decide) (.inl blank)
  rcases continues with (starts | isDigit) | rfl
  · exact starts
  · exact absurd (mem_numberHeads_of_isDigit isDigit) notHead
  · exact absurd (by decide) notHead

/-- The texts of the operators with white space, and their values. -/
inductive IsGapText (span : List Char) : String → Prop where
  | sign {sign : Char} (isSign : sign ∈ signs) (found : (spaced sign).Matches span) :
      IsGapText span (String.ofList [sign])
  | blanks (nonempty : span ≠ []) (blank : ∀ c ∈ span, isBlank c = true) : IsGapText span " "

theorem Spelling.isGapText (spelling : Spelling span .operator value)
    (notStar : span ≠ ['*']) : IsGapText span value := by
  cases spelling with
  | star => exact absurd rfl notStar
  | sign isSign beforeBlank behindBlank =>
      exact .sign isSign (matches_spaced_iff.mpr ⟨_, _, rfl, beforeBlank, behindBlank⟩)
  | blanks nonempty blank => exact .blanks nonempty blank
  | colonWord areWords => simp [colonWords] at areWords

namespace IsGapText

theorem respaced (isGapText : IsGapText span value) (respaced : Respaced span other) :
    IsGapText other value := by
  cases isGapText with
  | sign isSign found => exact .sign isSign (respaced.matches_spaced isSign found)
  | blanks _ blank => exact .blanks respaced.ne_nil (respaced.all_blank blank)

theorem isGap (isGapText : IsGapText span value) : ∀ c ∈ span, IsGap c := by
  cases isGapText with
  | sign isSign found => exact isGap_of_spaced isSign found
  | blanks _ blank => exact fun c isMember => .inl (blank c isMember)

/-- An operator of characters of names is white space. -/
theorem all_blank (isGapText : IsGapText span value)
    (areNames : ∀ c ∈ span, continuesName c = true) :
    span ≠ [] ∧ ∀ c ∈ span, isBlank c = true := by
  cases isGapText with
  | sign isSign found =>
      obtain ⟨before, behind, rfl, _⟩ := matches_spaced_iff.mp found
      have continues := areNames _ (List.mem_append_right before List.mem_cons_self)
      cases (not_name_of_mem_signs isSign).2.2.symm.trans continues
  | blanks nonempty blank => exact ⟨nonempty, blank⟩

/-- White space and a character behind it are a name if both are in names. -/
theorem matches_append (isGapText : IsGapText span value)
    (areNames : ∀ c ∈ span, continuesName c = true) (continues : continuesName c = true) :
    bareName.Matches (span ++ [c]) := by
  obtain ⟨nonempty, blank⟩ := isGapText.all_blank areNames
  obtain ⟨first, rest, rfl⟩ := List.exists_cons_of_ne_nil nonempty
  obtain ⟨firstName, restNames⟩ := List.forall_mem_cons.mp areNames
  have starts := startsName_of_isBlank (blank first List.mem_cons_self) firstName
  refine matches_bareName_iff.mpr ⟨[], first, rest ++ [c], rfl, .inl rfl, starts, ?_⟩
  exact List.forall_mem_append.mpr ⟨restNames, by simpa using continues⟩

end IsGapText

/-- An operator with other white space is read before what stood behind it, unless a name takes the
white space. -/
theorem Token.ReadFrom.isNext_respaced (read : token.ReadFrom .selector position span after)
    (isOperator : token.kind = .operator) (respaced : Respaced span other)
    (apart : (∀ c ∈ other, continuesName c = true) → ∀ c ∈ after.head?, continuesName c = false) :
    token.IsNext other after := by
  have isGapText : IsGapText span token.value :=
    (isOperator ▸ read.spelling).isGapText respaced.ne_star
  generalize isValue : token.value = value at isGapText
  cases isGapText with
  | sign isSign found =>
      have foundAgain := respaced.matches_spaced isSign found
      obtain ⟨before, behind, rfl, beforeBlank, behindBlank⟩ := matches_spaced_iff.mp found
      obtain ⟨left, right, rfl, leftBlank, rightBlank⟩ := matches_spaced_iff.mp foundAgain
      have notBlank := read.not_blank_behind isOperator isSign beforeBlank behindBlank
      exact .of_sign isSign leftBlank rightBlank notBlank isOperator isValue
  | blanks _ blank =>
      have notGap := read.not_gap_behind isOperator blank
      exact .of_blanks respaced.ne_nil (respaced.all_blank blank) notGap apart isOperator isValue

/-! ## Tokens before white space -/

theorem matches_bareName_front (found : bareName.Matches (front ++ back)) (nonempty : front ≠ [])
    (notDot : front ≠ ['.']) : bareName.Matches front := by
  obtain ⟨dot, first, rest, spelled, isDot, starts, continues⟩ := matches_bareName_iff.mp found
  rcases isDot with rfl | rfl
  · obtain ⟨c, others, rfl⟩ := List.exists_cons_of_ne_nil nonempty
    simp only [List.cons_append, List.nil_append, List.cons.injEq] at spelled
    obtain ⟨rfl, rfl⟩ := spelled
    refine matches_bareName_iff.mpr ⟨[], c, others, rfl, .inl rfl, starts, ?_⟩
    exact fun d isMember => continues d (List.mem_append_left _ isMember)
  · obtain ⟨c, others, rfl⟩ := List.exists_cons_of_ne_nil nonempty
    simp only [List.cons_append, List.nil_append, List.cons.injEq] at spelled
    obtain ⟨rfl, spelled⟩ := spelled
    cases others with
    | nil => exact absurd rfl notDot
    | cons e others =>
        simp only [List.cons_append, List.cons.injEq] at spelled
        obtain ⟨rfl, rfl⟩ := spelled
        refine matches_bareName_iff.mpr ⟨['.'], e, others, rfl, .inr rfl, starts, ?_⟩
        exact fun d isMember => continues d (List.mem_append_left _ isMember)

theorem Token.ReadFrom.append_ne_dot (read : token.ReadFrom .selector position span after)
    (notArgument : token.kind ≠ .arguments) : span ++ middle ≠ ['.'] := by
  intro isDot
  obtain ⟨first, others, rfl⟩ := List.exists_cons_of_ne_nil read.span_ne_nil
  obtain ⟨rfl, isNil⟩ := List.cons.inj isDot
  rw [(List.append_eq_nil_iff.mp isNil).1] at read
  cases read with
  | blob => exact absurd rfl notArgument
  | rule _ takes => exact not_matches_dot takes.isRule takes.spanMatches

/-- The characters before a gap are read as before if no name goes on into it. -/
theorem Token.ReadFrom.apart (read : token.ReadFrom .selector position span (middle ++ d :: after))
    (notArgument : token.kind ≠ .arguments) (alike : Alike d c) (isGap : IsGap c)
    (noName : bareName.Matches (span ++ middle) → continuesName c = false) :
    Apart (span ++ middle) (c :: back) := by
  -- A match into the new gap stays one with the old character in place of the new one.
  have notLonger : ∀ rule ∈ selectorRules, ¬ rule.pattern.Matches (span ++ middle ++ [d]) := by
    intro rule isRule found
    have isPrefix : middle ++ [d] <+: middle ++ d :: after := ⟨after, by simp⟩
    rw [List.append_assoc] at found
    have isNil := read.eq_nil notArgument isRule isPrefix found
    simp at isNil
  have notBlank : kept (span ++ middle ++ [c]) ≠ [] := by
    rw [← alike.kept_append_eq]
    intro isNil
    exact notLonger _ IsSelectorRule.blanks.mem
      (matches_atLeastOnce_one_iff.mpr ⟨by simp, kept_eq_nil_iff.mp isNil⟩)
  have isHead : ∀ {e more}, e :: more <+: c :: back → e = c := by
    intro e more isPrefix
    obtain ⟨rest, spelled⟩ := isPrefix
    exact (List.cons.inj spelled).1
  refine ⟨?_, ?_, ?_, ?_⟩
  · intro e isFirst
    exact Option.some.inj isFirst ▸ isGap
  · intro e more isPrefix found
    have nonempty : span ++ middle ≠ [] := by simp [read.span_ne_nil]
    have isName := matches_bareName_front found nonempty (read.append_ne_dot notArgument)
    have isTail : e ∈ (span ++ middle ++ e :: more).tail := by
      obtain ⟨first, others, isSpan⟩ := List.exists_cons_of_ne_nil nonempty
      simp [isSpan]
    have continues := continuesName_of_bareName found e isTail
    rw [isHead isPrefix, noName isName] at continues
    cases continues
  · intro e more isPrefix found
    have isNil := kept_eq_nil_iff.mpr (Pattern.all_of_matches_atLeastOnce found)
    rw [isHead isPrefix, List.append_cons, kept_append] at isNil
    exact notBlank (List.append_eq_nil_iff.mp isNil).1
  · intro sign isSign e more isPrefix found
    rw [matches_spaced_iff_kept isSign, isHead isPrefix, List.append_cons, kept_append,
      List.append_eq_singleton_iff] at found
    rcases found with ⟨isNil, _⟩ | ⟨isKept, _⟩
    · exact notBlank isNil
    · rw [← alike.kept_append_eq, ← matches_spaced_iff_kept isSign] at isKept
      exact notLonger _ (IsSelectorRule.sign isSign).mem isKept

theorem Token.ReadFrom.isNext_before_gap
    (read : token.ReadFrom .selector position span (middle ++ d :: after)) (alike : Alike d c)
    (isGap : IsGap c) (noName : token.kind ≠ .arguments → bareName.Matches (span ++ middle) →
      continuesName c = false) :
    token.IsNext span (middle ++ c :: back) := by
  by_cases isArgument : token.kind = .arguments
  · obtain ⟨kind, value, place⟩ := token
    cases isArgument
    have spelling : Spelling span .arguments value := read.spelling
    cases spelling with
    | argument opens closes => exact .of_split? rfl rfl opens (closes _)
    | colonWord areWords => simp [colonWords] at areWords
  · exact read.isNext_of_apart (read.apart isArgument alike isGap (noName isArgument))

/-- Whether the text of a token is a name without quotes, or the word of a kind. -/
def IsWord (span : List Char) (kind : TokenKind) : Prop :=
  kind = .nativeKind ∨ kind = .identifier ∧ span.getLast? ≠ some '"'

theorem Spelling.of_matches_bareName (spelling : Spelling span kind value)
    (found : TokenRule.bareName.Matches span) :
    IsWord span kind ∨ kind = .operator ∧ ∀ c ∈ span, isBlank c = true := by
  have noQuote : '"' ∉ span := Pattern.not_mem_of_avoids (by decide) found
  have starts : ∀ {first rest}, span = first :: rest → TokenRule.bareName.starts first = true :=
    Pattern.starts_of_matches found
  cases spelling with
  | argument opens =>
      obtain ⟨rest, rfl⟩ := List.head?_eq_some_iff.mp opens
      exact absurd (starts rfl) (by decide)
  | star => exact absurd (starts rfl) (by decide)
  | sign isSign => exact absurd (by simp) (not_mem_bareName_of_sign isSign found)
  | blanks _ blank => exact .inr ⟨rfl, blank⟩
  | kindWord => exact .inl (.inl rfl)
  | reference => exact absurd (starts rfl) (by decide)
  | bareName => exact .inl (.inr ⟨rfl, fun isLast => noQuote (List.mem_of_getLast? isLast)⟩)
  | quotedName _ isQuoted =>
      obtain ⟨body, rfl, _⟩ := exists_of_matches_quoted isQuoted
      exact absurd (by simp) noQuote
  | number isNumber =>
      obtain ⟨first, rest, rfl⟩ := List.exists_cons_of_ne_nil (ne_nil_of_number isNumber)
      have isHead := mem_numberHeads_of_starts (Pattern.starts_of_matches isNumber rfl)
      cases (starts rfl).symm.trans (not_starts_of_all isHead (by decide))
  | colonWord => exact absurd (starts rfl) (by decide)

/-- A name that goes on into other white space ends right before it. -/
theorem Token.ReadFrom.isWord
    (read : token.ReadFrom .selector position span (middle ++ d :: after))
    (notArgument : token.kind ≠ .arguments) (alike : Alike d c) (isGap : IsGap c)
    (found : bareName.Matches (span ++ middle)) (continues : continuesName c = true) :
    middle = [] ∧ IsWord span token.kind := by
  have isNil := read.eq_nil notArgument IsSelectorRule.bareName.mem (List.prefix_append ..) found
  refine ⟨isNil, ?_⟩
  rw [isNil, List.append_nil] at found
  rcases read.spelling.of_matches_bareName found with isWord | ⟨isOperator, allBlank⟩
  · exact isWord
  · have notGap := read.not_gap_behind isOperator allBlank d (by rw [isNil]; rfl)
    rcases isGap with blank | isSign
    · exact absurd (.inl (alike.isBlank blank)) notGap
    · cases (not_name_of_mem_signs isSign).2.2.symm.trans continues

/-! ## Words that take white space -/

theorem Spelling.of_native (spelling : Spelling span .nativeKind value) : span = value.toList := by
  cases spelling with
  | kindWord => rfl
  | colonWord areWords => simp [colonWords] at areWords

theorem Spelling.of_identifier (spelling : Spelling span .identifier value) :
    ∃ dot name, span = dot ++ name ∧ (dot = [] ∨ dot = ['.']) ∧
      ((∃ first rest, name = first :: rest ∧ startsName first = true ∧ name = value.toList) ∨
        name.head? = some '"' ∧ name.getLast? = some '"') := by
  cases spelling with
  | bareName isDot starts =>
      exact ⟨_, _, rfl, isDot, .inl ⟨_, _, rfl, starts, String.toList_ofList.symm⟩⟩
  | quotedName isDot isQuoted =>
      obtain ⟨body, rfl, isBody⟩ := exists_of_matches_quoted isQuoted
      exact ⟨_, _, rfl, isDot, .inr ⟨rfl, by simp [List.getLast?_cons, isBody.getLast?]⟩⟩
  | colonWord areWords => simp [colonWords] at areWords

theorem IsWord.ne_arguments (isWord : IsWord span kind) : kind ≠ .arguments := by
  rcases isWord with rfl | ⟨rfl, _⟩ <;> decide

theorem IsWord.matches_append (isWord : IsWord span kind) (spelling : Spelling span kind value)
    (continues : continuesName c = true) : TokenRule.bareName.Matches (span ++ [c]) := by
  rcases isWord with rfl | ⟨rfl, notQuote⟩
  · cases spelling with
    | kindWord isWord => exact matches_name_of_kindWord isWord continues
    | colonWord areWords => simp [colonWords] at areWords
  · cases spelling with
    | @bareName dot rest first isDot starts areNames =>
        refine matches_bareName_iff.mpr ⟨dot, first, rest ++ [c], by simp, isDot, starts, ?_⟩
        exact List.forall_mem_append.mpr ⟨areNames, by simpa using continues⟩
    | quotedName isDot isQuoted =>
        obtain ⟨body, rfl, isBody⟩ := exists_of_matches_quoted isQuoted
        simp [List.getLast?_append, List.getLast?_cons, isBody.getLast?] at notQuote
    | colonWord areWords => simp [colonWords] at areWords

/-- No longer text is a word of the same kind and value. -/
theorem IsWord.not_longer {more : List Char} (isWord : IsWord span kind)
    (spelling : Spelling span kind value) : ¬ Spelling (span ++ c :: more) kind value := by
  intro longer
  rcases isWord with rfl | ⟨rfl, notQuote⟩
  · have same := longer.of_native
    rw [← spelling.of_native] at same
    simp at same
  · obtain ⟨dot, name, rfl, isDot, isBare | isQuoted⟩ := spelling.of_identifier
    · obtain ⟨first, rest, rfl, starts, isValue⟩ := isBare
      have notDot : first ≠ '.' := fun isPoint => absurd (isPoint ▸ starts) (by decide)
      have notOpening : first ≠ '"' := fun isQuote => absurd (isQuote ▸ starts) (by decide)
      obtain ⟨otherDot, other, same, isOtherDot, isOther | isOther⟩ := longer.of_identifier
      · obtain ⟨_, _, _, _, isOtherValue⟩ := isOther
        -- Both are the value, but for a dot: the longer one would need a dot where the other
        -- has its first letter.
        rw [isOtherValue, ← isValue] at same
        have sameLength := congrArg List.length same
        rcases isOtherDot with rfl | rfl
        · simp only [List.length_append, List.length_cons, List.length_nil] at sameLength
          omega
        · rcases isDot with rfl | rfl
          · exact notDot (List.cons.inj same).1
          · simp only [List.length_append, List.length_cons, List.length_nil] at sameLength
            omega
      · obtain ⟨body, rfl⟩ := List.head?_eq_some_iff.mp isOther.1
        rcases isDot with rfl | rfl <;> rcases isOtherDot with rfl | rfl
        · exact notOpening (List.cons.inj same).1
        · exact notDot (List.cons.inj same).1
        · exact absurd (List.cons.inj same).1 (by decide)
        · exact notOpening (List.cons.inj (List.cons.inj same).2).1
    · exact notQuote (by simp [List.getLast?_append, isQuoted.2])

end TreeQuery
